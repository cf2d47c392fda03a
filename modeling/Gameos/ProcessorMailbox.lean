import Mathlib.Data.List.Nodup
import Gameos.ProcessorStartup

-- The slots of the trampoline are handed from one processor to the next.
namespace ProcessorStartup
open AllocatorTypes AllocatorCalls AllocatorContract TransitionRuns

section Invariant
variable {σ : Type} (platform : Platform σ) (madt : MADT_Info)

def startables (cpus : List CPU_Info) : List UInt32 := (cpus.filter startable).map CPU_Info.apic_id

-- What the list of prepared processors keeps.
structure Prepares (s : State σ) : Prop where
  indices : s.prepared.map Prepared.cpu_index = List.range' 1 s.prepared.length
  ordered : s.prepared.map Prepared.apic_id <+: startables madt.cpus
  core_infos : ∀ p ∈ s.prepared, p.core_info = platform.core_info p.cpu_index
  aligned : ∀ p ∈ s.prepared, AP_STACK_ALIGNMENT ∣ p.memory
  owned : ∀ p ∈ s.prepared, p.block ∈ platform.live s.heap
  apart : s.prepared.Pairwise fun a b => Apart a.block b.block

-- Every prepared processor has read its slots, and no other has been started.
structure Settled (left : List CPU_Info) (s : State σ) : Prop where
  ids : s.prepared.map Prepared.apic_id ++ startables left = startables madt.cpus
  next : s.next_cpu_index = s.prepared.length + 1
  arrived : ∀ p ∈ s.prepared, Arrived p (s.processors p.apic_id)
  untouched : ∀ i, i ∉ s.prepared.map Prepared.apic_id → s.processors i = .off

-- All but the last prepared one have.
structure Serving (p : Prepared) (cpu : CPU_Info) (left : List CPU_Info) (s : State σ) : Prop where
  split : ∃ older, s.prepared = older ++ [p] ∧ ∀ q ∈ older, Arrived q (s.processors q.apic_id)
  named : p.apic_id = cpu.apic_id
  ids : s.prepared.map Prepared.apic_id ++ startables left = startables madt.cpus
  next : s.next_cpu_index = p.cpu_index
  untouched : ∀ i, i ∉ s.prepared.map Prepared.apic_id → s.processors i = .off

def Unmarked (s : State σ) : Prop := ∀ stage, s.mailbox.breadcrumb stage = false

-- By the phase of the bootstrap processor.
inductive Standing (s : State σ) : Prop where
  | loop : s.bsp = .loop left → Settled madt left s → Standing s
  | finished : s.bsp = .finished → Settled madt [] s → Standing s
  | clearing : s.bsp = .body cpu left (.clear more) → Settled madt (cpu :: left) s → startable cpu = true →
      (∀ stage, stage ∉ more → s.mailbox.breadcrumb stage = false) → Standing s
  | stacking : s.bsp = .body cpu left .set_up_a_new_stack → Settled madt (cpu :: left) s → startable cpu = true →
      Unmarked s → Standing s
  | indexing : s.bsp = .body cpu left .set_cpu_index → Serving madt p cpu left s → Unmarked s →
      s.processors cpu.apic_id = .off → s.mailbox.stack = p.stack_top → Standing s
  | pointing : s.bsp = .body cpu left .copy_pointer_to_core_info → Serving madt p cpu left s → Unmarked s →
      s.processors cpu.apic_id = .off → s.mailbox.stack = p.stack_top → s.mailbox.cpu_index = p.cpu_index → Standing s
  | initializing : s.bsp = .body cpu left .init → Serving madt p cpu left s → s.processors cpu.apic_id = .off →
      Follows p s.mailbox (s.processors cpu.apic_id) → Standing s
  | starting (second : Bool) : s.bsp = .body cpu left (.start_up second) ∨ s.bsp = .body cpu left .wait → Serving madt p cpu left s →
      Follows p s.mailbox (s.processors cpu.apic_id) → Standing s
  | checking : s.bsp = .body cpu left (.check more) → Serving madt p cpu left s →
      Follows p s.mailbox (s.processors cpu.apic_id) →
      (∀ stage, stage ∉ more → s.mailbox.breadcrumb stage = true) → Standing s
  | halted : s.bsp = .halted → Settled madt left s → Standing s
  | stopped : s.bsp = .halted → Serving madt p cpu left s → Follows p s.mailbox (s.processors cpu.apic_id) → Standing s
  | reset : s.bsp = .reset → (∀ i, s.processors i = .waiting) → Standing s

variable {platform madt} {s t : State σ} {p : Prepared} {cpu : CPU_Info} {left : List CPU_Info}

theorem startables_cons (yes : startable cpu = true) (left : List CPU_Info) :
    startables (cpu :: left) = cpu.apic_id :: startables left := by
  unfold startables
  rw [List.filter_cons_of_pos yes,List.map_cons]

theorem startables_skip (no : startable cpu = false) (left : List CPU_Info) :
    startables (cpu :: left) = startables left := by
  unfold startables
  rw [List.filter_cons_of_neg (by simp [no])]

theorem startables_nodup (distinct : (madt.cpus.map CPU_Info.apic_id).Nodup) : (startables madt.cpus).Nodup :=
  distinct.sublist (List.filter_sublist.map _)

-- The bootstrap processor is not among the ones to start.
theorem startables_few (one : madt.cpus.countP CPU_Info.is_bsp = 1) : (startables madt.cpus).length < MAX_CPUS := by
  have split := List.length_eq_countP_add_countP startable (l := madt.cpus)
  have fewer : madt.cpus.countP CPU_Info.is_bsp ≤ madt.cpus.countP (fun cpu => !startable cpu) := by
    apply List.countP_mono_left
    intro cpu _ bsp
    simp [startable,bsp]
  have bounded := madt.bounded
  unfold startables
  rw [List.length_map,← List.countP_eq_length_filter]
  simp only [Bool.not_eq_true,Bool.decide_eq_false] at split
  omega

theorem Prepares.few (prepares : Prepares platform madt s) (one : madt.cpus.countP CPU_Info.is_bsp = 1) :
    s.prepared.length < MAX_CPUS := by
  have shorter := prepares.ordered.length_le
  rw [List.length_map] at shorter
  exact shorter.trans_lt (startables_few one)

theorem Prepares.index_below (prepares : Prepares platform madt s) (one : madt.cpus.countP CPU_Info.is_bsp = 1)
    (here : p ∈ s.prepared) : p.cpu_index < MAX_CPUS := by
  have few := prepares.few one
  have listed : p.cpu_index ∈ s.prepared.map Prepared.cpu_index := List.mem_map_of_mem here
  rw [prepares.indices,List.mem_range'_1] at listed
  omega

theorem Prepares.core_info_low (prepares : Prepares platform madt s) (one : madt.cpus.countP CPU_Info.is_bsp = 1)
    (here : p ∈ s.prepared) : p.core_info < 4294967296 := by
  have below := prepares.index_below one here
  rw [prepares.core_infos p here]
  refine lt_of_lt_of_le ?_ platform.low
  exact Nat.add_lt_add_left (Nat.mul_lt_mul_of_pos_right below platform.sized) _

theorem Prepares.stack_aligned (prepares : Prepares platform madt s) (here : p ∈ s.prepared) :
    AP_STACK_ALIGNMENT ∣ p.stack_top := Nat.dvd_add (prepares.aligned p here) (by decide)

theorem Prepares.transport (prepares : Prepares platform madt s) (prepared : t.prepared = s.prepared)
    (owned : ∀ p ∈ s.prepared, p.block ∈ platform.live t.heap) : Prepares platform madt t := by
  refine ⟨?_,?_,?_,?_,?_,?_⟩
  all_goals rw [prepared]
  · exact prepares.indices
  · exact prepares.ordered
  · exact prepares.core_infos
  · exact prepares.aligned
  · exact owned
  · exact prepares.apart

theorem Settled.transport (settled : Settled madt left s) (prepared : t.prepared = s.prepared)
    (next : t.next_cpu_index = s.next_cpu_index) (processors : t.processors = s.processors) : Settled madt left t := by
  refine ⟨?_,?_,?_,?_⟩
  · rw [prepared]
    exact settled.ids
  · rw [prepared,next]
    exact settled.next
  · rw [prepared,processors]
    exact settled.arrived
  · rw [prepared,processors]
    exact settled.untouched

theorem Serving.transport (serving : Serving madt p cpu left s) (prepared : t.prepared = s.prepared)
    (next : t.next_cpu_index = s.next_cpu_index) (processors : t.processors = s.processors) :
    Serving madt p cpu left t := by
  refine ⟨?_,serving.named,?_,?_,?_⟩
  · rw [prepared,processors]
    exact serving.split
  · rw [prepared]
    exact serving.ids
  · rw [next]
    exact serving.next
  · rw [prepared,processors]
    exact serving.untouched

theorem off_moves (off : processor = .off) (moves : Moves mailbox processor after mailbox') : False := by
  subst off
  cases moves

-- A step of another processor, where every prepared one has arrived.
theorem settled_proceed (settled : Settled madt left s) (moves : Moves s.mailbox (s.processors i) processor mailbox)
    (online : Nat → Bool) :
    Settled madt left {s with processors := update s.processors i processor, mailbox := mailbox, cpus_online := online} ∧
      mailbox = s.mailbox := by
  have known : i ∈ s.prepared.map Prepared.apic_id := by
    by_contra unknown
    exact off_moves (settled.untouched i unknown) moves
  obtain ⟨q,here,named⟩ := List.mem_map.mp known
  refine ⟨⟨settled.ids,settled.next,?_,?_⟩,?_⟩
  · intro r there
    by_cases same : r.apic_id = i
    · have arrived := settled.arrived r there
      rw [same] at arrived
      simp only [update,if_pos same]
      exact (arrived_moves arrived moves).1
    · simp only [update,if_neg same]
      exact settled.arrived r there
  · intro j unknown
    have different : j ≠ i := fun same => unknown (by rw [same]; exact known)
    simp only [update,if_neg different]
    exact settled.untouched j unknown
  · have arrived := settled.arrived q here
    rw [named] at arrived
    exact (arrived_moves arrived moves).2

-- The same while the slots are being handed to one of them.
theorem serving_proceed (serving : Serving madt p cpu left s)
    (moves : Moves s.mailbox (s.processors i) processor mailbox) (online : Nat → Bool) :
    Serving madt p cpu left {s with processors := update s.processors i processor, mailbox := mailbox, cpus_online := online} ∧
      (i ≠ cpu.apic_id → mailbox = s.mailbox) := by
  obtain ⟨older,split,arrived⟩ := serving.split
  have names : s.prepared.map Prepared.apic_id = older.map Prepared.apic_id ++ [cpu.apic_id] := by
    rw [split,List.map_append,List.map_singleton,serving.named]
  have known : i ∈ s.prepared.map Prepared.apic_id := by
    by_contra unknown
    exact off_moves (serving.untouched i unknown) moves
  refine ⟨⟨⟨older,split,?_⟩,serving.named,serving.ids,serving.next,?_⟩,?_⟩
  · intro q there
    by_cases same : q.apic_id = i
    · have before := arrived q there
      rw [same] at before
      simp only [update,if_pos same]
      exact (arrived_moves before moves).1
    · simp only [update,if_neg same]
      exact arrived q there
  · intro j unknown
    have different : j ≠ i := fun same => unknown (by rw [same]; exact known)
    simp only [update,if_neg different]
    exact serving.untouched j unknown
  · intro other
    rw [names,List.mem_append] at known
    rcases known with before | last
    · obtain ⟨q,there,named⟩ := List.mem_map.mp before
      have arrived := arrived q there
      rw [named] at arrived
      exact (arrived_moves arrived moves).2
    · exact absurd (List.mem_singleton.mp last) other

theorem follows_proceed (follows : Follows p s.mailbox (s.processors cpu.apic_id)) (aligned : AP_STACK_ALIGNMENT ∣ p.stack_top)
    (low : p.core_info < 4294967296) (moves : Moves s.mailbox (s.processors i) processor mailbox)
    (unchanged : i ≠ cpu.apic_id → mailbox = s.mailbox) :
    Follows p mailbox (update s.processors i processor cpu.apic_id) := by
  by_cases same : cpu.apic_id = i
  · rw [same] at follows
    simp only [update,if_pos same]
    exact follows_moves follows aligned low moves
  · simp only [update,if_neg same]
    rw [unchanged (Ne.symm same)]
    exact follows

-- A breadcrumb stays.
theorem moves_marks (moves : Moves mailbox processor after mailbox') (seen : mailbox.breadcrumb stage = true) :
    mailbox'.breadcrumb stage = true := by
  cases moves with
  | online => exact seen
  | @executes instruction =>
      cases instruction with
      | breadcrumb other =>
          simp only [execute,update]
          split
          · rfl
          · exact seen
      | load_stack => exact seen
      | align_stack => exact seen
      | load_core_info => exact seen
      | load_cpu_index => exact seen
      | call_entry => exact seen

theorem Serving.here (serving : Serving madt p cpu left s) : p ∈ s.prepared := by
  obtain ⟨older,split,_⟩ := serving.split
  rw [split]
  exact List.mem_append_right _ (List.mem_singleton.mpr rfl)

theorem standing_proceed (standing : Standing madt s) (prepares : Prepares platform madt s)
    (one : madt.cpus.countP CPU_Info.is_bsp = 1) (moved : proceed s i = some t) :
    Standing madt t ∧ Prepares platform madt t := by
  obtain ⟨processor,mailbox,online,moves,rfl⟩ := proceed_cases moved
  refine ⟨?_,prepares.transport rfl prepares.owned⟩
  -- while the processor the slots are for is off, only the others move
  have elsewhere {cpu : CPU_Info} (off : s.processors cpu.apic_id = .off) : i ≠ cpu.apic_id := by
    intro same
    rw [same] at moves
    exact off_moves off moves
  have stays_off {cpu : CPU_Info} (off : s.processors cpu.apic_id = .off) :
      update s.processors i processor cpu.apic_id = .off := by
    simp only [update,if_neg (Ne.symm (elsewhere off))]
    exact off
  have followed {p : Prepared} {cpu : CPU_Info} {left : List CPU_Info} (serving : Serving madt p cpu left s)
      (follows : Follows p s.mailbox (s.processors cpu.apic_id)) :
      Follows p mailbox (update s.processors i processor cpu.apic_id) :=
    follows_proceed follows (prepares.stack_aligned serving.here) (prepares.core_info_low one serving.here) moves
      (serving_proceed serving moves online).2
  cases standing with
  | loop phase settled => exact .loop phase (settled_proceed settled moves online).1
  | finished phase settled => exact .finished phase (settled_proceed settled moves online).1
  | clearing phase settled yes cleared =>
      obtain ⟨next,same⟩ := settled_proceed settled moves online
      subst same
      exact .clearing phase next yes cleared
  | stacking phase settled yes unmarked =>
      obtain ⟨next,same⟩ := settled_proceed settled moves online
      subst same
      exact .stacking phase next yes unmarked
  | indexing phase serving unmarked off stack =>
      obtain ⟨next,same⟩ := serving_proceed serving moves online
      have same := same (elsewhere off)
      subst same
      exact .indexing phase next unmarked (stays_off off) stack
  | pointing phase serving unmarked off stack index =>
      obtain ⟨next,same⟩ := serving_proceed serving moves online
      have same := same (elsewhere off)
      subst same
      exact .pointing phase next unmarked (stays_off off) stack index
  | initializing phase serving off follows =>
      exact .initializing phase (serving_proceed serving moves online).1 (stays_off off) (followed serving follows)
  | starting second phase serving follows =>
      exact .starting _ phase (serving_proceed serving moves online).1 (followed serving follows)
  | checking phase serving follows seen =>
      exact .checking phase (serving_proceed serving moves online).1 (followed serving follows)
        fun stage behind => moves_marks moves (seen stage behind)
  | halted phase settled => exact .halted phase (settled_proceed settled moves online).1
  | stopped phase serving follows =>
      exact .stopped phase (serving_proceed serving moves online).1 (followed serving follows)
  | reset phase waiting =>
      rw [waiting i] at moves
      cases moves

theorem off_follows (stack : s.mailbox.stack = p.stack_top) (core_info : s.mailbox.core_info = p.core_info)
    (cpu_index : s.mailbox.cpu_index = p.cpu_index) (unmarked : Unmarked s) (quiet : processor = .off ∨ processor = .waiting) :
    Follows p s.mailbox processor := by
  have whole : processor.remaining = smp_trampoline := by
    rcases quiet with rfl | rfl
    · rfl
    · rfl
  refine ⟨stack,core_info,cpu_index,?_,?_,?_,?_,?_,?_⟩
  · rw [whole]
  · intro registers same
    rw [same] at quiet
    simp at quiet
  · intro stage seen
    rw [unmarked stage] at seen
    cases seen
  · exact fun read => absurd (by decide) (whole ▸ read)
  · exact fun read => absurd (by decide) (whole ▸ read)
  · exact fun read => absurd (by decide) (whole ▸ read)

theorem follows_init (follows : Follows p mailbox .off) : Follows p mailbox .waiting :=
  ⟨follows.stack,follows.core_info,follows.cpu_index,follows.suffix,(fun _ same => nomatch same),follows.marks,
    follows.rsp,follows.gs_base,follows.edi⟩

theorem follows_start_up (follows : Follows p mailbox processor) : Follows p mailbox (receive_start_up processor) := by
  cases processor with
  | waiting => exact ⟨follows.stack,follows.core_info,follows.cpu_index,follows.suffix,(fun _ same => nomatch same),
      follows.marks,follows.rsp,follows.gs_base,follows.edi⟩
  | off => exact follows
  | trampoline => exact follows
  | ap_main => exact follows

theorem arrived_start_up (arrived : Arrived p processor) : receive_start_up processor = processor := by
  rcases arrived with rfl | ⟨_,rfl⟩
  · rfl
  · rfl

theorem stages_complete (stage : Breadcrumb_Stage) : stage ∈ stages := by
  cases stage <;> decide

-- The last one prepared has the index the loop is at.
theorem Prepares.last_index (prepares : Prepares platform madt s) (split : s.prepared = older ++ [p]) :
    p.cpu_index = s.prepared.length := by
  have indices := prepares.indices
  rw [split,List.map_append,List.map_singleton,List.length_append,List.length_singleton,List.range'_1_concat] at indices
  have same := List.append_inj_right' indices rfl
  rw [split,List.length_append,List.length_singleton]
  simpa [Nat.add_comm] using same

theorem Settled.next_off (settled : Settled madt (cpu :: left) s) (yes : startable cpu = true)
    (distinct : (madt.cpus.map CPU_Info.apic_id).Nodup) : cpu.apic_id ∉ s.prepared.map Prepared.apic_id := by
  have nodup := startables_nodup distinct
  rw [← settled.ids,startables_cons yes] at nodup
  intro there
  exact (List.nodup_append.mp nodup).2.2 _ there _ List.mem_cons_self rfl

theorem standing_stack (settled : Settled madt (cpu :: left) s) (yes : startable cpu = true) (unmarked : Unmarked s)
    (prepares : Prepares platform madt s) (distinct : (madt.cpus.map CPU_Info.apic_id).Nodup)
    (moved : set_up_a_new_stack platform s cpu left = some t) : Standing madt t ∧ Prepares platform madt t := by
  obtain ⟨result,heap,allocated,granted⟩ := alloc_granted platform.contract AP_STACK_SIZE AP_STACK_ALIGNMENT s.heap
  unfold set_up_a_new_stack at moved
  rw [allocated] at moved
  dsimp only at moved
  split at moved
  · rename_i fine
    cases moved
    have new := settled.next_off yes distinct
    have ids := settled.ids
    rw [startables_cons yes] at ids
    obtain ⟨_,wrong,_⟩ | ⟨_,fresh,after⟩ := granted
    · exact absurd fine (wrong (by decide))
    · refine ⟨.indexing rfl ⟨⟨s.prepared,rfl,settled.arrived⟩,rfl,?_,rfl,?_⟩ unmarked (settled.untouched _ new) rfl,
        ⟨?_,?_,?_,?_,?_,?_⟩⟩
      · rw [List.map_append,List.map_singleton,List.append_assoc]
        exact ids
      · intro i unknown
        rw [List.map_append,List.mem_append,not_or] at unknown
        exact settled.untouched i unknown.1
      · rw [List.map_append,List.map_singleton,prepares.indices,settled.next,List.length_append,List.length_singleton,
          List.range'_1_concat,Nat.add_comm 1]
      · rw [List.map_append,List.map_singleton,← ids]
        exact ⟨startables left,by simp⟩
      · intro p here
        rcases List.mem_append.mp here with before | last
        · exact prepares.core_infos p before
        · cases List.mem_singleton.mp last
          rfl
      · intro p here
        rcases List.mem_append.mp here with before | last
        · exact prepares.aligned p before
        · cases List.mem_singleton.mp last
          exact Int.natCast_dvd_natCast.mp fresh.aligned
      · intro p here
        rcases List.mem_append.mp here with before | last
        · exact after.symm.subset (List.mem_cons_of_mem _ (prepares.owned p before))
        · cases List.mem_singleton.mp last
          exact after.symm.subset List.mem_cons_self
      · refine List.pairwise_append.mpr ⟨prepares.apart,List.pairwise_singleton _ _,?_⟩
        intro p before q last
        cases List.mem_singleton.mp last
        exact (fresh.apart _ (prepares.owned p before)).symm
  · rename_i failed
    cases moved
    refine ⟨.halted rfl (settled.transport rfl rfl rfl),prepares.transport rfl ?_⟩
    intro p here
    have before := prepares.owned p here
    obtain ⟨_,_,after⟩ | ⟨fine,_⟩ := granted
    · exact after.symm.subset before
    · exact absurd fine failed

theorem standing_init (serving : Serving madt p cpu left s) (off : s.processors cpu.apic_id = .off)
    (follows : Follows p s.mailbox (s.processors cpu.apic_id)) (distinct : (madt.cpus.map CPU_Info.apic_id).Nodup) :
    Standing madt (send_init s cpu left) := by
  obtain ⟨older,split,arrived⟩ := serving.split
  have names : s.prepared.map Prepared.apic_id = older.map Prepared.apic_id ++ [cpu.apic_id] := by
    rw [split,List.map_append,List.map_singleton,serving.named]
  have nodup := startables_nodup distinct
  rw [← serving.ids,names] at nodup
  have apart := (List.nodup_append.mp (List.nodup_append.mp nodup).1).2.2
  unfold send_init
  split
  · by_cases broadcast : cpu.apic_id = 255
    · refine .reset (if_pos broadcast) fun i => ?_
      simp [addressed,broadcast,receive_init]
    · have reached (i : UInt32) : addressed cpu.apic_id i = true ↔ i = cpu.apic_id := by
        unfold addressed
        rw [Bool.or_eq_true,beq_iff_eq,beq_iff_eq,or_iff_left broadcast]
        exact eq_comm
      refine .starting false (.inl (if_neg broadcast)) ⟨⟨older,split,?_⟩,serving.named,serving.ids,serving.next,?_⟩ ?_
      · intro q there
        have different : q.apic_id ≠ cpu.apic_id :=
          apart _ (List.mem_map_of_mem there) _ (List.mem_singleton.mpr rfl)
        simp only [reached,if_neg different]
        exact arrived q there
      · intro i unknown
        have different : i ≠ cpu.apic_id := by
          intro same
          apply unknown
          rw [names,same]
          exact List.mem_append_right _ (List.mem_singleton.mpr rfl)
        simp only [reached,if_neg different]
        exact serving.untouched i unknown
      · rw [off] at follows
        simp only [reached,if_true]
        exact follows_init follows
  · exact .stopped rfl (serving.transport rfl rfl rfl) follows

theorem standing_start_up (serving : Serving madt p cpu left s) (follows : Follows p s.mailbox (s.processors cpu.apic_id))
    (phase : next = .body cpu left (.start_up true) ∨ next = .body cpu left .wait) :
    Standing madt (send_start_up s cpu next) := by
  obtain ⟨older,split,arrived⟩ := serving.split
  unfold send_start_up
  split
  · refine .starting true phase ⟨⟨older,split,?_⟩,serving.named,serving.ids,serving.next,?_⟩ ?_
    · intro q there
      have before := arrived q there
      dsimp only
      rw [arrived_start_up before,ite_self]
      exact before
    · intro i unknown
      have off := serving.untouched i unknown
      dsimp only
      rw [off]
      exact ite_self _
    · dsimp only
      split
      · exact follows_start_up follows
      · exact follows
  · exact .stopped rfl (serving.transport rfl rfl rfl) follows

-- All breadcrumbs are seen: the next one gets the slots.
theorem standing_checked (serving : Serving madt p cpu left s) (follows : Follows p s.mailbox (s.processors cpu.apic_id))
    (seen : ∀ stage, s.mailbox.breadcrumb stage = true) (prepares : Prepares platform madt s)
    (one : madt.cpus.countP CPU_Info.is_bsp = 1) :
    Standing madt {s with bsp := .loop left, next_cpu_index := (s.next_cpu_index + 1) % 4294967296} := by
  obtain ⟨older,split,arrived⟩ := serving.split
  have few := prepares.few one
  refine .loop rfl ⟨serving.ids,?_,?_,serving.untouched⟩
  · show (s.next_cpu_index + 1) % 4294967296 = _
    rw [serving.next,prepares.last_index split]
    unfold MAX_CPUS at few
    exact Nat.mod_eq_of_lt (by omega)
  · intro q there
    dsimp only at there
    rw [split] at there
    rcases List.mem_append.mp there with before | last
    · exact arrived q before
    · cases List.mem_singleton.mp last
      rw [serving.named]
      exact follows_arrived follows (seen _)

theorem standing_bsp (standing : Standing madt s) (prepares : Prepares platform madt s)
    (distinct : (madt.cpus.map CPU_Info.apic_id).Nodup) (one : madt.cpus.countP CPU_Info.is_bsp = 1)
    (moved : initialize_aps platform s = some t) : Standing madt t ∧ Prepares platform madt t := by
  have kept {t : State σ} (prepared : t.prepared = s.prepared) (heap : t.heap = s.heap) : Prepares platform madt t :=
    prepares.transport prepared (by rw [heap]; exact prepares.owned)
  cases standing with
  | @loop left phase settled =>
      cases left with
      | nil =>
          simp only [initialize_aps,phase] at moved
          cases moved
          exact ⟨.finished rfl (settled.transport rfl rfl rfl),kept rfl rfl⟩
      | cons cpu left =>
          simp only [initialize_aps,phase] at moved
          split at moved
          · rename_i skipped
            cases moved
            have no : startable cpu = false := by
              unfold startable
              cases on : cpu.enabled <;> simp_all
            refine ⟨.loop rfl ⟨?_,settled.next,settled.arrived,settled.untouched⟩,kept rfl rfl⟩
            have ids := settled.ids
            rwa [startables_skip no] at ids
          · rename_i chosen
            cases moved
            have yes : startable cpu = true := by
              unfold startable
              cases on : cpu.enabled <;> simp_all
            exact ⟨.clearing rfl (settled.transport rfl rfl rfl) yes
              fun stage none => absurd (stages_complete stage) none,kept rfl rfl⟩
  | finished phase settled =>
      simp only [initialize_aps,phase] at moved
      cases moved
  | @clearing cpu left more phase settled yes cleared =>
      cases more with
      | nil =>
          simp only [initialize_aps,phase] at moved
          cases moved
          exact ⟨.stacking rfl (settled.transport rfl rfl rfl) yes fun stage => cleared stage List.not_mem_nil,kept rfl rfl⟩
      | cons first more =>
          simp only [initialize_aps,phase] at moved
          cases moved
          refine ⟨.clearing rfl (settled.transport rfl rfl rfl) yes ?_,kept rfl rfl⟩
          intro stage done
          by_cases same : stage = first
          · simp [update,same]
          · simp only [update,if_neg same]
            exact cleared stage (List.not_mem_cons_of_ne_of_not_mem same done)
  | stacking phase settled yes unmarked =>
      simp only [initialize_aps,phase] at moved
      exact standing_stack settled yes unmarked prepares distinct moved
  | indexing phase serving unmarked off stack =>
      simp only [initialize_aps,phase] at moved
      cases moved
      exact ⟨.pointing rfl (serving.transport rfl rfl rfl) unmarked off stack serving.next,kept rfl rfl⟩
  | pointing phase serving unmarked off stack index =>
      simp only [initialize_aps,phase] at moved
      cases moved
      have pointer := prepares.core_infos _ serving.here
      rw [← serving.next] at pointer
      exact ⟨.initializing rfl (serving.transport rfl rfl rfl) off
        (off_follows stack pointer.symm index unmarked (.inl off)),kept rfl rfl⟩
  | initializing phase serving off follows =>
      simp only [initialize_aps,phase] at moved
      cases moved
      refine ⟨standing_init serving off follows distinct,kept ?_ ?_⟩
      · unfold send_init
        split <;> rfl
      · unfold send_init
        split <;> rfl
  | @starting cpu left p second phase serving follows =>
      have sent {next : Phase} (phase : next = .body cpu left (.start_up true) ∨ next = .body cpu left .wait) :
          Standing madt (send_start_up s cpu next) ∧ Prepares platform madt (send_start_up s cpu next) := by
        refine ⟨standing_start_up serving follows phase,kept ?_ ?_⟩
        · unfold send_start_up
          split <;> rfl
        · unfold send_start_up
          split <;> rfl
      rcases phase with phase | phase
      · cases second with
        | false =>
            simp only [initialize_aps,phase] at moved
            cases moved
            exact sent (.inl rfl)
        | true =>
            simp only [initialize_aps,phase] at moved
            cases moved
            exact sent (.inr rfl)
      · simp only [initialize_aps,phase] at moved
        split at moved
        · cases moved
          exact ⟨.checking rfl (serving.transport rfl rfl rfl) follows
            fun stage none => absurd (stages_complete stage) none,kept rfl rfl⟩
        · cases moved
  | @checking cpu left more p phase serving follows seen =>
      cases more with
      | nil =>
          simp only [initialize_aps,phase] at moved
          cases moved
          exact ⟨standing_checked serving follows (fun stage => seen stage List.not_mem_nil) prepares one,kept rfl rfl⟩
      | cons first more =>
          simp only [initialize_aps,phase] at moved
          split at moved
          · rename_i okay
            cases moved
            refine ⟨.checking rfl (serving.transport rfl rfl rfl) follows ?_,kept rfl rfl⟩
            intro stage done
            by_cases same : stage = first
            · rw [same]
              exact okay
            · exact seen stage (List.not_mem_cons_of_ne_of_not_mem same done)
          · cases moved
            exact ⟨.stopped rfl (serving.transport rfl rfl rfl) follows,kept rfl rfl⟩
  | halted phase settled =>
      simp only [initialize_aps,phase] at moved
      cases moved
  | stopped phase serving follows =>
      simp only [initialize_aps,phase] at moved
      cases moved
  | reset phase waiting =>
      simp only [initialize_aps,phase] at moved
      cases moved

theorem standing_time_out (standing : Standing madt s) (prepares : Prepares platform madt s)
    (moved : time_out s = some t) : Standing madt t ∧ Prepares platform madt t := by
  unfold time_out at moved
  split at moved
  · rename_i cpu left waits
    cases moved
    refine ⟨?_,prepares.transport rfl prepares.owned⟩
    have checks {p : Prepared} (serving : Serving madt p cpu left s) (follows : Follows p s.mailbox (s.processors cpu.apic_id)) :
        Standing madt {s with bsp := .body cpu left (.check stages)} :=
      .checking rfl (serving.transport rfl rfl rfl) follows fun stage none => absurd (stages_complete stage) none
    cases standing with
    | starting second phase serving follows =>
        rcases phase with phase | phase
        · rw [waits] at phase
          cases phase
        · rw [waits] at phase
          cases phase
          exact checks serving follows
    | loop phase => rw [waits] at phase; cases phase
    | finished phase => rw [waits] at phase; cases phase
    | clearing phase => rw [waits] at phase; cases phase
    | stacking phase => rw [waits] at phase; cases phase
    | indexing phase => rw [waits] at phase; cases phase
    | pointing phase => rw [waits] at phase; cases phase
    | initializing phase => rw [waits] at phase; cases phase
    | checking phase => rw [waits] at phase; cases phase
    | halted phase => rw [waits] at phase; cases phase
    | stopped phase => rw [waits] at phase; cases phase
    | reset phase => rw [waits] at phase; cases phase
  · cases moved

theorem standing_others (standing : Standing madt s) (heap : σ) : Standing madt {s with heap := heap} := by
  cases standing with
  | loop phase settled => exact .loop phase (settled.transport rfl rfl rfl)
  | finished phase settled => exact .finished phase (settled.transport rfl rfl rfl)
  | clearing phase settled yes cleared => exact .clearing phase (settled.transport rfl rfl rfl) yes cleared
  | stacking phase settled yes unmarked => exact .stacking phase (settled.transport rfl rfl rfl) yes unmarked
  | indexing phase serving unmarked off stack =>
      exact .indexing phase (serving.transport rfl rfl rfl) unmarked off stack
  | pointing phase serving unmarked off stack index =>
      exact .pointing phase (serving.transport rfl rfl rfl) unmarked off stack index
  | initializing phase serving off follows => exact .initializing phase (serving.transport rfl rfl rfl) off follows
  | starting second phase serving follows => exact .starting second phase (serving.transport rfl rfl rfl) follows
  | checking phase serving follows seen => exact .checking phase (serving.transport rfl rfl rfl) follows seen
  | halted phase settled => exact .halted phase (settled.transport rfl rfl rfl)
  | stopped phase serving follows => exact .stopped phase (serving.transport rfl rfl rfl) follows
  | reset phase waiting => exact .reset phase waiting

theorem standing_step (distinct : (madt.cpus.map CPU_Info.apic_id).Nodup) (one : madt.cpus.countP CPU_Info.is_bsp = 1)
    (held : Standing madt s ∧ Prepares platform madt s) (step : Step platform s action t) :
    Standing madt t ∧ Prepares platform madt t := by
  obtain ⟨standing,prepares⟩ := held
  cases step with
  | bsp moved => exact standing_bsp standing prepares distinct one moved
  | time_out moved => exact standing_time_out standing prepares moved
  | processor moved => exact standing_proceed standing prepares one moved
  | others owned => exact ⟨standing_others standing _,prepares.transport rfl owned⟩

theorem start_standing (mailbox : Mailbox) (heap : σ) :
    Standing madt (start madt mailbox heap) ∧ Prepares platform madt (start madt mailbox heap) := by
  refine ⟨.loop rfl ⟨rfl,rfl,(fun _ none => nomatch none),fun _ _ => rfl⟩,
    ⟨rfl,List.nil_prefix,(fun _ none => nomatch none),(fun _ none => nomatch none),(fun _ none => nomatch none),.nil⟩⟩

-- What a processor has read was prepared for it.
structure Reads (p : Prepared) (processor : Processor) : Prop where
  rsp : .load_stack ∉ processor.remaining → processor.registers.rsp = p.stack_top
  edi : .load_cpu_index ∉ processor.remaining → processor.registers.edi = p.cpu_index
  entered : ∀ registers online, processor = .ap_main registers online → registers = p.registers

theorem follows_reads (follows : Follows p mailbox processor) : Reads p processor := by
  refine ⟨follows.rsp,follows.edi,?_⟩
  intro registers online entered
  subst entered
  have rsp : registers.rsp = p.stack_top := follows.rsp List.not_mem_nil
  have gs_base : registers.gs_base = p.core_info := follows.gs_base List.not_mem_nil
  have edi : registers.edi = p.cpu_index := follows.edi List.not_mem_nil
  unfold Prepared.registers
  rw [← rsp,← gs_base,← edi]

theorem arrived_reads (arrived : Arrived p processor) : Reads p processor := by
  rcases arrived with rfl | ⟨online,rfl⟩
  · exact ⟨fun _ => rfl,fun _ => rfl,fun _ _ same => nomatch same⟩
  · refine ⟨fun _ => rfl,fun _ => rfl,fun _ _ same => ?_⟩
    cases same
    rfl

def Quiet (processor : Processor) : Prop := processor = .off ∨ processor = .waiting

theorem settled_reads (settled : Settled madt left s) (i : UInt32) :
    Quiet (s.processors i) ∨ ∃ p ∈ s.prepared, p.apic_id = i ∧ Reads p (s.processors i) := by
  by_cases known : i ∈ s.prepared.map Prepared.apic_id
  · obtain ⟨p,here,rfl⟩ := List.mem_map.mp known
    exact .inr ⟨p,here,rfl,arrived_reads (settled.arrived p here)⟩
  · exact .inl (.inl (settled.untouched i known))

theorem serving_reads (serving : Serving madt p cpu left s)
    (current : s.processors cpu.apic_id = .off ∨ Follows p s.mailbox (s.processors cpu.apic_id)) (i : UInt32) :
    Quiet (s.processors i) ∨ ∃ p ∈ s.prepared, p.apic_id = i ∧ Reads p (s.processors i) := by
  obtain ⟨older,split,arrived⟩ := serving.split
  by_cases known : i ∈ s.prepared.map Prepared.apic_id
  · obtain ⟨q,here,rfl⟩ := List.mem_map.mp known
    have there := here
    rw [split] at there
    rcases List.mem_append.mp there with before | last
    · exact .inr ⟨q,here,rfl,arrived_reads (arrived q before)⟩
    · cases List.mem_singleton.mp last
      rw [serving.named]
      rcases current with off | follows
      · exact .inl (.inl off)
      · exact .inr ⟨_,here,serving.named,follows_reads follows⟩
  · exact .inl (.inl (serving.untouched i known))

theorem standing_reads (standing : Standing madt s) (i : UInt32) :
    Quiet (s.processors i) ∨ ∃ p ∈ s.prepared, p.apic_id = i ∧ Reads p (s.processors i) := by
  cases standing with
  | loop _ settled => exact settled_reads settled i
  | finished _ settled => exact settled_reads settled i
  | clearing _ settled => exact settled_reads settled i
  | stacking _ settled => exact settled_reads settled i
  | indexing _ serving _ off => exact serving_reads serving (.inl off) i
  | pointing _ serving _ off => exact serving_reads serving (.inl off) i
  | initializing _ serving off => exact serving_reads serving (.inl off) i
  | starting _ _ serving follows => exact serving_reads serving (.inr follows) i
  | checking _ serving follows => exact serving_reads serving (.inr follows) i
  | halted _ settled => exact settled_reads settled i
  | stopped _ serving follows => exact serving_reads serving (.inr follows) i
  | reset _ waiting => exact .inl (.inr (waiting i))

-- The stack that grows down from a stack pointer.
def stack_below (rsp : Nat) : Block := ⟨rsp - AP_STACK_SIZE,AP_STACK_SIZE⟩

theorem stack_below_top (p : Prepared) : stack_below p.stack_top = p.block := by
  unfold stack_below Prepared.stack_top Prepared.block
  rw [Nat.add_sub_cancel]

-- No processor got what was prepared for another.
structure Unmixed (platform : Platform σ) (madt : MADT_Info) (s : State σ) : Prop where
  entered : ∀ i registers online, s.processors i = .ap_main registers online →
    ∃ p ∈ s.prepared, p.apic_id = i ∧ registers = p.registers
  once : (s.prepared.map Prepared.apic_id).Nodup
  own_stack : ∀ i, .load_stack ∉ (s.processors i).remaining →
    Apart platform.boot_stack (stack_below (s.processors i).registers.rsp) ∧
      ∀ j, i ≠ j → .load_stack ∉ (s.processors j).remaining →
        Apart (stack_below (s.processors i).registers.rsp) (stack_below (s.processors j).registers.rsp)
  own_index : ∀ i, .load_cpu_index ∉ (s.processors i).remaining →
    (s.processors i).registers.edi ≠ 0 ∧
      ∀ j, i ≠ j → .load_cpu_index ∉ (s.processors j).remaining →
        (s.processors i).registers.edi ≠ (s.processors j).registers.edi
  indices : s.prepared.map Prepared.cpu_index = List.range' 1 s.prepared.length
  ordered : s.prepared.map Prepared.apic_id <+: startables madt.cpus
  below : ∀ p ∈ s.prepared, p.cpu_index < MAX_CPUS

theorem quiet_unread (quiet : Quiet processor) (load : Instruction) (loads : load ∈ smp_trampoline) :
    load ∈ processor.remaining := by
  rcases quiet with rfl | rfl
  · exact loads
  · exact loads

theorem standing_unmixed (standing : Standing madt s) (prepares : Prepares platform madt s)
    (distinct : (madt.cpus.map CPU_Info.apic_id).Nodup) (one : madt.cpus.countP CPU_Info.is_bsp = 1) :
    Unmixed platform madt s := by
  have named {i : UInt32} {load : Instruction} (loads : load ∈ smp_trampoline) (read : load ∉ (s.processors i).remaining) :
      ∃ p ∈ s.prepared, p.apic_id = i ∧ Reads p (s.processors i) := by
    rcases standing_reads standing i with quiet | known
    · exact absurd (quiet_unread quiet load loads) read
    · exact known
  have listed {p : Prepared} (here : p ∈ s.prepared) : p.cpu_index ∈ List.range' 1 s.prepared.length := by
    rw [← prepares.indices]
    exact List.mem_map_of_mem here
  refine ⟨?_,(startables_nodup distinct).sublist prepares.ordered.sublist,?_,?_,prepares.indices,prepares.ordered,
    fun p here => prepares.index_below one here⟩
  · intro i registers online entered
    have started : .load_stack ∉ (s.processors i).remaining := by
      rw [entered]
      exact List.not_mem_nil
    obtain ⟨p,here,named,reads⟩ := named (by decide) started
    exact ⟨p,here,named,reads.entered _ _ entered⟩
  · intro i read
    obtain ⟨p,here,rfl,reads⟩ := named (by decide) read
    rw [reads.rsp read,stack_below_top]
    refine ⟨platform.reserved s.heap _ (prepares.owned p here),?_⟩
    intro j different loaded
    obtain ⟨q,there,rfl,others⟩ := named (by decide) loaded
    rw [others.rsp loaded,stack_below_top]
    have : Std.Symm fun a b : Prepared => Apart a.block b.block := ⟨fun _ _ apart => apart.symm⟩
    exact prepares.apart.forall here there fun same => different (by rw [same])
  · intro i read
    obtain ⟨p,here,rfl,reads⟩ := named (by decide) read
    rw [reads.edi read]
    refine ⟨?_,?_⟩
    · have bounds := List.mem_range'_1.mp (listed here)
      omega
    · intro j different loaded
      obtain ⟨q,there,rfl,others⟩ := named (by decide) loaded
      rw [others.edi loaded]
      intro same
      have nodup : (s.prepared.map Prepared.cpu_index).Nodup := by
        rw [prepares.indices]
        exact List.nodup_range'
      have equal := List.inj_on_of_nodup_map nodup here there same
      exact different (by rw [equal])

theorem mailbox_unmixed (platform : Platform σ) (madt : MADT_Info) (distinct : (madt.cpus.map CPU_Info.apic_id).Nodup)
    (one : madt.cpus.countP CPU_Info.is_bsp = 1) (mailbox : Mailbox) (heap : σ)
    (run : Run (Step platform) (fun _ _ => True) (start madt mailbox heap) actions s) : Unmixed platform madt s := by
  obtain ⟨standing,prepares⟩ := run.keeps (fun s => Standing madt s ∧ Prepares platform madt s)
    (fun _ _ _ held _ step => standing_step distinct one held step) (start_standing mailbox heap)
  exact standing_unmixed standing prepares distinct one

end Invariant

section Example

-- Two processors beside the bootstrap one, on a heap of shelves.
def shelf_platform : Platform Shelf where
  allocator := shelves
  live := Shelf.blocks
  contract := shelves_contract
  core_infos := 0x200000
  core_info_size := 64
  low := by decide
  sized := by decide
  boot_stack := ⟨0x100000,AP_STACK_SIZE⟩
  reserved := by
    intro shelf block here
    obtain ⟨_,_,place,_,pointer⟩ := shelf.placed block here
    refine .inl ?_
    rw [pointer]
    unfold AP_STACK_SIZE
    push_cast
    omega

def three_cpus : MADT_Info := ⟨[⟨0,true,true⟩,⟨4,true,false⟩,⟨2,true,false⟩],by decide⟩

def act (s : State Shelf) : Action Shelf → Option (State Shelf)
  | .bsp => initialize_aps shelf_platform s
  | .time_out => time_out s
  | .processor i => proceed s i
  | .others _ => none

-- The second one is so slow that the wait for it times out.
def three_actions : List (Action Shelf) :=
  List.replicate 20 .bsp ++ List.replicate 17 (.processor 4) ++ List.replicate 32 .bsp ++
    List.replicate 15 (.processor 2) ++ [.time_out] ++ List.replicate 12 .bsp ++ List.replicate 2 (.processor 2)

theorem act_step (moved : act s action = some t) : Step shelf_platform s action t := by
  cases action with
  | bsp => exact .bsp moved
  | time_out => exact .time_out moved
  | processor i => exact .processor moved
  | others heap => cases moved

theorem mailbox_unmixed_three : ∃ s,
    (s.processors 4 = .ap_main ⟨4294967296 + 65536,0x200040,1⟩ true ∧
      s.processors 2 = .ap_main ⟨2 * 4294967296 + 65536,0x200080,2⟩ true) ∧ Unmixed shelf_platform three_cpus s := by
  have followed : (follow act (fun _ _ => true) (start three_cpus ⟨0,0,0,fun _ => true⟩ (.empty 2)) three_actions).map
      (fun s => (s.processors 4,s.processors 2)) =
        some (.ap_main ⟨4294967296 + 65536,0x200040,1⟩ true,.ap_main ⟨2 * 4294967296 + 65536,0x200080,2⟩ true) := by
    decide
  obtain ⟨s,run,seen⟩ := Option.map_eq_some_iff.mp followed
  simp only [Prod.mk.injEq] at seen
  exact ⟨s,seen,mailbox_unmixed shelf_platform three_cpus (by decide) (by decide) _ _
    (follow_run act _ (fun _ _ _ moved => act_step moved) (fun _ _ _ => trivial) run)⟩

end Example

end ProcessorStartup
